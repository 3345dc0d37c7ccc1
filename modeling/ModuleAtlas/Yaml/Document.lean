import ModuleAtlas.Yaml.Node
import ModuleAtlas.Yaml.Number

/-!
# Values of a document

A document is read in full before any of it is used: every scalar must have a value, every key must
be no collection, and the merge keys of a mapping must name mappings. The collections inside a
collection are checked after all of it, so the outermost fault is the one that counts.
-/

namespace ModuleAtlas.Yaml

/-- The state of a check: the nodes, and the collections that wait for being checked or have been.
-/
structure Survey where
  nodes : Array Node
  waiting : List Nat
  seen : List Nat

/-- A step of checking a document. -/
abbrev Check := StateT Survey (Except Fault)

/-- What a node turns out to be. -/
inductive Found where
  | text (value : String)
  | other
  | collection
deriving Repr, DecidableEq

namespace Check

/-- The node of a number. -/
def nodeAt (number : Nat) : Check Node := do
  return ((← get).nodes[number]?).getD ⟨.unknown, .scalar ""⟩

/-- Changes the node of a number. -/
def changeNode (number : Nat) (change : Node → Node) : Check Unit :=
  modify fun survey => { survey with nodes := survey.nodes.modify number change }

/-! ## Scalars -/

/-- The text of a scalar, or of the value that stands for a whole mapping. -/
def scalarText : Nat → Nat → Check String
  | 0, _ => throw .malformed
  | fuel + 1, number => do
    let node ← nodeAt number
    match node.content with
    | .scalar text => return text
    | .sequence _ => throw .malformed
    | .mapping entries => do
      match ← entries.findM? fun entry => return (← nodeAt entry.1).tag = .default with
      | some entry => scalarText fuel entry.2
      | none => throw .malformed

/-- The words for truth values. -/
def truthWords : List String := ["yes", "no", "true", "false", "on", "off"]

/-- Checks the text of a scalar. -/
def checkText (tag : Tag) (text : String) : Except Fault Unit :=
  match tag with
  | .truth => if truthWords.contains (Text.lower text) then .ok () else .error .noTruthValue
  | .integer => Number.checkInteger text.toList
  | .decimal => Number.checkDecimal text.toList
  | .bytes => if Text.Base64.isWellFormed text then .ok () else .error .malformed
  | .date => Number.checkDate text.toList
  | .null | .string => .ok ()
  | _ => .error .malformed

/-- Checks that the node of a date is a scalar, which is done after its text has been found. -/
def checkDateNode (node : Node) : Except Fault Unit :=
  match node.tag, node.content with
  | .date, .mapping _ => .error .dateNotScalar
  | _, _ => .ok ()

/-- Whether a tag is that of a collection. -/
def isCollectionTag : Tag → Bool
  | .sequence | .orderedMapping | .pairs | .mapping | .set => true
  | _ => false

/-- Finds out what a node is. A collection is checked later, and once. -/
def find (number : Nat) : Check Found := do
  let node ← nodeAt number
  if isCollectionTag node.tag then
    if !(← get).seen.contains number then
      modify fun survey =>
        { survey with waiting := survey.waiting ++ [number], seen := number :: survey.seen }
    return .collection
  else if [Tag.merge, .default, .unknown].contains node.tag then throw .malformed
  else
    let text ← scalarText ((← get).nodes.size + 1) number
    checkDateNode node
    checkText node.tag text
    return if node.tag = .string then .text text else .other

/-! ## Merging -/

/-- The first entry under a merge key, and the entries without it. -/
def takeMerge (entries : List (Nat × Nat)) : Check (Option (Nat × List (Nat × Nat))) := do
  match ← entries.findM? fun entry => return (← nodeAt entry.1).tag = .merge with
  | some entry => return some (entry.2, entries.erase entry)
  | none => return none

/-- Makes the keys for the value of a whole mapping plain texts. -/
def nameDefaults (entries : List (Nat × Nat)) : Check Unit :=
  entries.forM fun entry =>
    changeNode entry.1 fun node =>
      if node.tag = .default then { node with tag := .string } else node

/-- The entries of a mapping. -/
def entriesOf (number : Nat) : Check (List (Nat × Nat)) := do return (← nodeAt number).entries

/-- Replaces the entries of a mapping. -/
def setEntries (number : Nat) (entries : List (Nat × Nat)) : Check Unit :=
  changeNode number fun node => { node with content := .mapping entries }

/-- Whether a node is a mapping. -/
def isMapping (number : Nat) : Check Bool := do
  match (← nodeAt number).content with
  | .mapping _ => return true
  | _ => return false

mutual

/-- Replaces the merge keys of a mapping by the entries of what they name, given those of the merge
keys before. Its own entries come last, so they count. -/
def merge : Nat → Nat → List (Nat × Nat) → Check Unit
  | 0, _, _ => throw .malformed
  | fuel + 1, number, gathered => do
    match ← takeMerge (← entriesOf number) with
    | some (named, rest) => do
      setEntries number rest
      let more ← mergedEntries fuel named
      merge fuel number (gathered ++ more)
    | none => do
      nameDefaults (← entriesOf number)
      setEntries number (gathered ++ (← entriesOf number))

/-- The entries of what a merge key names: a mapping, or several of which the first ones count. -/
def mergedEntries : Nat → Nat → Check (List (Nat × Nat))
  | 0, _ => throw .malformed
  | fuel + 1, named => do
    match (← nodeAt named).content with
    | .mapping _ => do
      merge fuel named []
      entriesOf named
    | .sequence items => do
      let found ← items.mapM fun item => do
        if !(← isMapping item) then throw .malformed
        merge fuel item []
        entriesOf item
      return found.reverse.flatten
    | .scalar _ => throw .malformed

end

/-- A bound on the steps of merging: each but the last one for a mapping takes an entry away. -/
def mergeBound : Check Nat := do
  return 2 * ((← get).nodes.toList.map fun node => node.entries.length).foldl (· + ·) 0 + 2

/-! ## Collections -/

/-- Checks an entry of a mapping. Its key must not be a collection. -/
def checkEntry (entry : Nat × Nat) : Check Unit := do
  if (← find entry.1) = .collection then throw .malformed
  let _ ← find entry.2

/-- Checks an item of a list of entries: a mapping of one entry. -/
def checkSingle (number : Nat) : Check Unit := do
  match (← nodeAt number).content with
  | .mapping [(key, value)] => do
    let _ ← find key
    let _ ← find value
  | _ => throw .malformed

/-- Checks a collection, but not the collections in it. -/
def checkCollection (number : Nat) : Check Unit := do
  let node ← nodeAt number
  match node.tag, node.content with
  | .mapping, .mapping _ | .set, .mapping _ => do
    merge (← mergeBound) number []
    (← entriesOf number).forM checkEntry
  | .sequence, .sequence items => items.forM fun item => do
    let _ ← find item
  | .orderedMapping, .sequence items | .pairs, .sequence items => items.forM checkSingle
  | _, _ => throw .malformed

/-- Checks the collections that wait, and those that are found on the way. -/
def checkAll : Nat → Check Unit
  | 0 => return ()
  | fuel + 1 => do
    match (← get).waiting with
    | [] => return ()
    | number :: rest => do
      modify fun survey => { survey with waiting := rest }
      checkCollection number
      checkAll fuel

/-- Checks a document from its outermost node on. -/
def document (root : Nat) : Check Unit := do
  let _ ← find root
  checkAll ((← get).nodes.size + 1)

/-! ## Contents -/

/-- The value under a key of a mapping; of equal keys the last one counts. -/
def valueOf (key : String) (number : Nat) : Check (Option Nat) := do
  let node ← nodeAt number
  if node.tag ≠ .mapping then return none
  let entry ← node.entries.reverse.findM? fun entry => return (← find entry.1) = .text key
  return entry.map (·.2)

/-- The texts among the items of a list. -/
def textsOf (number : Nat) : Check (List String) := do
  let node ← nodeAt number
  match node.tag, node.content with
  | .sequence, .sequence items =>
    let found ← items.mapM find
    return found.filterMap fun item =>
      match item with
      | .text value => some value
      | _ => none
  | _, _ => return []

/-- The texts in the list under a key of a document. -/
def textsUnder (key : String) (root : Nat) : Check (List String) := do
  document root
  match ← valueOf key root with
  | some list => textsOf list
  | none => return []

end Check

/-- The texts in the list under a key of the document that a text holds. -/
def textsUnder (key : String) (text : List Char) : Except Fault (List String) := do
  let graph ← NodeGraph.ofText text
  match graph.root with
  | none => return []
  | some root => return (← Check.textsUnder key root ⟨graph.nodes, [], []⟩).1

end ModuleAtlas.Yaml
