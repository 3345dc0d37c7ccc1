import ModuleAtlas.Yaml.Token

/-!
# Nodes of a document

The scalars, sequences and mappings of a document. Each node has a number, and collections hold the
numbers of their parts: an alias stands for the number of the node that its anchor names, which may
be a collection around it. A node without a tag gets the one that its form or its text gives it.
-/

namespace ModuleAtlas.Yaml

/-- What a node is meant to be. -/
inductive Tag where
  | null
  | truth
  | integer
  | decimal
  | bytes
  | date
  | string
  | sequence
  | orderedMapping
  | pairs
  | mapping
  | set
  | merge
  | default
  | unknown
deriving Repr, DecidableEq, Inhabited

namespace Tag

/-- What the tags that everyone knows start with. -/
def commonStart : String := "tag:yaml.org,2002:"

/-- The tags by their names. -/
def names : List (String × Tag) :=
  [("null", .null), ("bool", .truth), ("int", .integer), ("float", .decimal), ("binary", .bytes),
    ("timestamp", .date), ("str", .string), ("seq", .sequence), ("omap", .orderedMapping),
    ("pairs", .pairs), ("map", .mapping), ("set", .set), ("merge", .merge), ("value", .default)]

/-- The tag of a name. -/
def ofName (name : String) : Tag :=
  if Text.startsWith commonStart name then
    (names.lookup (Text.dropChars commonStart.length name)).getD .unknown
  else .unknown

/-- The tag that the text of a plain scalar gives it. -/
def ofPlain (text : String) : Tag :=
  match meaning text with
  | .nothing => .null
  | .truth => .truth
  | .integer => .integer
  | .decimal => .decimal
  | .date => .date
  | .merge => .merge
  | .default => .default
  | .indicator => .unknown
  | .text => .string

end Tag

/-- What a node holds. -/
inductive Content where
  | scalar (text : String)
  | sequence (items : List Nat)
  | mapping (entries : List (Nat × Nat))
deriving Repr, Inhabited

/-- A node of a document. -/
structure Node where
  tag : Tag
  content : Content
deriving Repr, Inhabited

namespace Node

/-- The entries of a mapping. -/
def entries (node : Node) : List (Nat × Nat) :=
  match node.content with
  | .mapping entries => entries
  | _ => []

end Node

/-- What is known while tokens are put together. -/
structure Composer where
  tokenizer : Tokenizer
  /-- What the handles of tags stand for. -/
  handles : List (String × String)
  nodes : Array Node
  anchors : List (String × Nat)
  /-- The collections that there is room for inside the one that is read. -/
  room : Nat

/-- A step of putting tokens together. -/
abbrev Compose := StateT Composer (Except Fault)

/-- Which nodes may stand in a place: those inside brackets, blocks too, or also sequences that are
not indented. -/
inductive Place where
  | flow
  | block
  | entry
deriving Repr, DecidableEq

namespace Compose

/-- Cuts tokens. -/
def cutting (task : Cut α) : Compose α := fun composer =>
  match task composer.tokenizer with
  | .ok (value, tokenizer) => .ok (value, { composer with tokenizer := tokenizer })
  | .error fault => .error fault

/-- The next token. -/
def peek : Compose Token := cutting Cut.peek

/-- Leaves the next token behind. -/
def skip : Compose Unit := cutting Cut.skip

/-- Adds a node. -/
def addNode (node : Node) : Compose Nat := do
  let number := (← get).nodes.size
  modify fun composer => { composer with nodes := composer.nodes.push node }
  return number

/-- Replaces what a node holds. -/
def setContent (number : Nat) (content : Content) : Compose Unit :=
  modify fun composer =>
    let nodes := composer.nodes.modify number fun node => { node with content := content }
    { composer with nodes := nodes }

/-- The node without a text that stands where one is left out. -/
def addEmpty : Compose Nat := addNode ⟨.null, .scalar ""⟩

/-! ## Properties -/

/-- The anchor and the tag before a node. -/
structure Properties where
  anchor : Option String
  tag : Option String

/-- The name of a tag whose handle is known. -/
def tagName (handle : Option String) (rest : String) : Compose String := do
  match handle with
  | none => return rest
  | some handle =>
    match (← get).handles.lookup handle with
    | some expansion => return expansion ++ rest
    | none => throw .malformed

/-- Takes an anchor, if there is one. -/
def takeAnchor : Compose (Option String) := do
  match ← peek with
  | .anchor name =>
    skip
    return some name
  | _ => return none

/-- Takes a tag, if there is one. -/
def takeTag : Compose (Option (Option String × String)) := do
  match ← peek with
  | .tag handle rest =>
    skip
    return some (handle, rest)
  | _ => return none

/-- Takes an anchor and a tag in either order. -/
def takeProperties : Compose Properties := do
  let anchor ← takeAnchor
  let tag ← takeTag
  let anchor ← if anchor.isNone && tag.isSome then takeAnchor else pure anchor
  let name ←
    match tag with
    | some (handle, rest) => some <$> tagName handle rest
    | none => pure none
  return ⟨anchor, name⟩

/-- The tag that stands for no tag in particular. -/
def anyTag : String := "!"

/-- The tag that has been written for a node, if it is one in particular. -/
def Properties.tag? (properties : Properties) : Option Tag :=
  (properties.tag.filter (· != anyTag)).map Tag.ofName

/-- Whether a node has an anchor or a tag. -/
def Properties.isGiven (properties : Properties) : Bool :=
  properties.anchor.isSome || properties.tag.isSome

/-- The tag of a scalar: the written one, or the one that its text gives a plain scalar and a scalar
with no tag in particular. -/
def scalarTag (properties : Properties) (text : String) (isPlain : Bool) : Tag :=
  match properties.tag? with
  | some tag => tag
  | none => if isPlain || properties.tag.isSome then Tag.ofPlain text else .string

/-- Adds a node with its properties. No two nodes have one anchor. -/
def addWith (properties : Properties) (tag : Tag) (content : Content) : Compose Nat := do
  match properties.anchor with
  | none => addNode ⟨tag, content⟩
  | some name => do
    if ((← get).anchors.lookup name).isSome then throw .malformed
    let number ← addNode ⟨tag, content⟩
    modify fun composer => { composer with anchors := (name, number) :: composer.anchors }
    return number

/-- Reads the parts of a collection, if there is room for it. -/
def enter (parts : Compose α) : Compose α := do
  match (← get).room with
  | 0 => throw .tooDeep
  | room + 1 => do
    modify fun composer => { composer with room := room }
    let found ← parts
    modify fun composer => { composer with room := room + 1 }
    return found

/-- Adds a sequence, whose items are read after it is known. -/
def addSequence (properties : Properties) (items : Compose (List Nat)) : Compose Nat := do
  let number ← addWith properties (properties.tag?.getD .sequence) (.sequence [])
  setContent number (.sequence (← enter items))
  return number

/-- Adds a mapping, whose entries are read after it is known. -/
def addMapping (properties : Properties) (entries : Compose (List (Nat × Nat))) : Compose Nat := do
  let number ← addWith properties (properties.tag?.getD .mapping) (.mapping [])
  setContent number (.mapping (← enter entries))
  return number

/-- The node that an alias stands for. -/
def aliased (name : String) : Compose Nat := do
  match (← get).anchors.lookup name with
  | some number => return number
  | none => throw .malformed

/-! ## Nodes -/

/-- Whether a token ends a part of a block mapping that has been left out. -/
def endsBlockPart : Token → Bool
  | .key | .value | .blockEnd => true
  | _ => false

/-- Whether a token ends an item of a block sequence that has been left out. -/
def endsBlockItem (indented : Bool) : Token → Bool
  | .blockEntry | .blockEnd => true
  | .key | .value => !indented
  | _ => false

/-- Whether a token ends a part of an entry inside brackets that has been left out. -/
def endsFlowPart (closing : Token) (token : Token) : Bool := token = .flowEntry || token = closing

mutual

/-- Reads a node. -/
def node : Nat → Place → Compose Nat
  | 0, _ => throw .malformed
  | fuel + 1, place => do
    match ← peek with
    | .alias name => do
      skip
      aliased name
    | _ => do
      let properties ← takeProperties
      match ← peek with
      | .scalar text isPlain => do
        skip
        addWith properties (scalarTag properties text isPlain) (.scalar text)
      | .flowSequenceStart => addSequence properties do
          skip
          flowItems fuel true
      | .flowMappingStart => addMapping properties do
          skip
          flowEntries fuel true
      | token =>
        if place = .entry && token = .blockEntry then
          addSequence properties (blockItems fuel false)
        else if place ≠ .flow && token = .blockSequenceStart then
          addSequence properties do
            skip
            blockItems fuel true
        else if place ≠ .flow && token = .blockMappingStart then
          addMapping properties do
            skip
            blockEntries fuel
        else if properties.isGiven then
          addWith properties (properties.tag?.getD .null) (.scalar "")
        else throw .malformed

/-- Reads the items of a block sequence. One that is not indented ends before any other token. -/
def blockItems : Nat → Bool → Compose (List Nat)
  | 0, _ => throw .malformed
  | fuel + 1, indented => do
    match ← peek with
    | .blockEntry => do
      skip
      let item ← if endsBlockItem indented (← peek) then addEmpty else node fuel .block
      return item :: (← blockItems fuel indented)
    | token =>
      if !indented then return []
      else if token = .blockEnd then
        skip
        return []
      else throw .malformed

/-- Reads the entries of a block mapping. -/
def blockEntries : Nat → Compose (List (Nat × Nat))
  | 0 => throw .malformed
  | fuel + 1 => do
    match ← peek with
    | .key => do
      skip
      let key ← if endsBlockPart (← peek) then addEmpty else node fuel .entry
      let value ← blockValue fuel
      return (key, value) :: (← blockEntries fuel)
    | .blockEnd => do
      skip
      return []
    | _ => throw .malformed

/-- Reads the value of an entry of a block mapping. -/
def blockValue : Nat → Compose Nat
  | 0 => throw .malformed
  | fuel + 1 => do
    match ← peek with
    | .value => do
      skip
      if endsBlockPart (← peek) then addEmpty else node fuel .entry
    | _ => addEmpty

/-- Reads the value of an entry inside brackets. -/
def flowValue : Nat → Token → Compose Nat
  | 0, _ => throw .malformed
  | fuel + 1, closing => do
    match ← peek with
    | .value => do
      skip
      if endsFlowPart closing (← peek) then addEmpty else node fuel .flow
    | _ => addEmpty

/-- Reads the key after its mark, and its value, inside brackets. -/
def flowEntry : Nat → Token → Compose (Nat × Nat)
  | 0, _ => throw .malformed
  | fuel + 1, closing => do
    skip
    let next ← peek
    let key ←
      if next = .value || endsFlowPart closing next then addEmpty else node fuel .flow
    return (key, ← flowValue fuel closing)

/-- Reads the items of a sequence inside brackets. An item may be a mapping of one entry. -/
def flowItems : Nat → Bool → Compose (List Nat)
  | 0, _ => throw .malformed
  | fuel + 1, isFirst => do
    if !isFirst && (← peek) = .flowEntry then skip
    else if !isFirst && (← peek) ≠ .flowSequenceEnd then throw .malformed
    match ← peek with
    | .flowSequenceEnd => do
      skip
      return []
    | .key => do
      let item ← addMapping ⟨none, none⟩ do
        return [← flowEntry fuel .flowSequenceEnd]
      return item :: (← flowItems fuel false)
    | _ => do
      let item ← node fuel .flow
      return item :: (← flowItems fuel false)

/-- Reads the entries of a mapping inside brackets. A node that is no key has no value. -/
def flowEntries : Nat → Bool → Compose (List (Nat × Nat))
  | 0, _ => throw .malformed
  | fuel + 1, isFirst => do
    if !isFirst && (← peek) = .flowEntry then skip
    else if !isFirst && (← peek) ≠ .flowMappingEnd then throw .malformed
    match ← peek with
    | .flowMappingEnd => do
      skip
      return []
    | .key => do
      let entry ← flowEntry fuel .flowMappingEnd
      return entry :: (← flowEntries fuel false)
    | _ => do
      let key ← node fuel .flow
      let value ← addEmpty
      return (key, value) :: (← flowEntries fuel false)

end

/-! ## Documents -/

/-- What the handles of tags stand for without directives. -/
def commonHandles : List (String × String) := [("!", "!"), ("!!", Tag.commonStart)]

/-- Takes the directives before a document. -/
def takeDirectives : Nat → Bool → List (String × String) → Compose (List (String × String))
  | 0, _, _ => throw .malformed
  | fuel + 1, hasVersion, handles => do
    match ← peek with
    | .directive (.version major) => do
      skip
      if hasVersion || major ≠ 1 then throw .malformed
      takeDirectives fuel true handles
    | .directive (.handle name expansion) => do
      skip
      if (handles.lookup name).isSome then throw .malformed
      takeDirectives fuel hasVersion ((name, expansion) :: handles)
    | .directive .other => do
      skip
      takeDirectives fuel hasVersion handles
    | _ => return handles ++ commonHandles

/-- Takes the marks at the end of documents. -/
def skipEndMarks : Nat → Compose Unit
  | 0 => return ()
  | fuel + 1 => do
    if (← peek) = .documentEnd then
      skip
      skipEndMarks fuel

/-- Takes the start of a document with its directives; there is none at the end of the text. -/
def takeStart (fuel : Nat) : Compose Bool := do
  skipEndMarks fuel
  if (← peek) = .streamEnd then return false
  let handles ← takeDirectives fuel false []
  if (← peek) ≠ .documentStart then throw .malformed
  skip
  modify fun composer => { composer with handles := handles }
  return true

/-- Reads the node of a document whose start has been written. -/
def startedNode (fuel : Nat) : Compose Nat := do
  match ← peek with
  | .directive _ | .documentStart | .documentEnd | .streamEnd => addEmpty
  | _ => node fuel .block

/-- Reads the node of the first document, if there is one. -/
def firstNode (fuel : Nat) : Compose (Option Nat) := do
  match ← peek with
  | .streamEnd => return none
  | .directive _ | .documentStart => do
    if ← takeStart fuel then return some (← startedNode fuel) else return none
  | _ => return some (← node fuel .block)

/-- Reads the only document of a text, if there is one. -/
def document (fuel : Nat) : Compose (Option Nat) := do
  match ← firstNode fuel with
  | none => return none
  | some root => do
    if (← peek) = .documentEnd then skip
    if ← takeStart fuel then throw .malformed
    return some root

end Compose

/-- The nodes of a document, and the number of the outermost one, if there is any. -/
structure NodeGraph where
  nodes : Array Node
  root : Option Nat

/-- The greatest number of collections inside each other. Each of them takes two of the thousand
calls that may be open at a time, and this is what other calls leave of them; the exact number
matters nowhere. -/
def nestingLimit : Nat := 470

/-- The nodes of a document. -/
def NodeGraph.ofText (text : List Char) : Except Fault NodeGraph :=
  if !text.all isAdmitted then .error .malformed
  else
    let fuel := 8 * text.length + 32
    match Compose.document fuel ⟨Tokenizer.start text, Compose.commonHandles, #[],
        [], nestingLimit⟩ with
    | .ok (root, composer) => .ok ⟨composer.nodes, root⟩
    | .error fault => .error fault

end ModuleAtlas.Yaml
