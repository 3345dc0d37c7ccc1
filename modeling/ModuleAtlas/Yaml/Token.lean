import ModuleAtlas.Yaml.Scalars

/-!
# Tokens of a document

The scalars of a document, its names, and the marks of its structure. Indentation becomes marks too:
a block starts where a mark stands further in than the block around it, and ends where a token
stands further out. A token may turn out to be a key only when the colon after it is met: it has to
be on the same line, and not too far away.
-/

namespace ModuleAtlas.Yaml

/-- A line with instructions before a document. -/
inductive Directive where
  | version (major : Nat)
  | handle (name expansion : String)
  | other
deriving Repr, DecidableEq

/-- A token of a document. -/
inductive Token where
  | directive (content : Directive)
  | documentStart
  | documentEnd
  | streamEnd
  | blockSequenceStart
  | blockMappingStart
  | blockEnd
  | blockEntry
  | flowSequenceStart
  | flowSequenceEnd
  | flowMappingStart
  | flowMappingEnd
  | flowEntry
  | key
  | value
  | alias (name : String)
  | anchor (name : String)
  | tag (handle : Option String) (rest : String)
  | scalar (text : String) (isPlain : Bool)
deriving Repr, DecidableEq

/-- The place of a token that may be a key: the number of the token, whether it has to be a key, and
where it stands. -/
structure KeyPlace where
  number : Nat
  isRequired : Bool
  cursor : Cursor

/-- What is known while a document is cut into tokens. -/
structure Tokenizer where
  cursor : Cursor
  isDone : Bool
  /-- The tokens that have been cut and not been taken yet. -/
  waiting : List Token
  /-- The number of tokens that have been taken. -/
  taken : Nat
  /-- The number of open brackets. -/
  depth : Nat
  /-- The column of the innermost block; outside all blocks it is minus one. -/
  indent : Int
  /-- The columns of the blocks around it. -/
  outer : List Int
  /-- Whether the next token may be a key. -/
  allowsKey : Bool
  /-- The tokens that may be keys, by the number of open brackets. -/
  keys : List (Nat × KeyPlace)

/-- A step of cutting a document into tokens. -/
abbrev Cut := StateT Tokenizer (Except Fault)

namespace Tokenizer

/-- The start of a document, after a byte order mark. -/
def start (text : List Char) : Tokenizer where
  cursor := (Cursor.start text).skipOrderMark
  isDone := false
  waiting := []
  taken := 0
  depth := 0
  indent := -1
  outer := []
  allowsKey := true
  keys := []

/-- The greatest distance between the start of a key and its colon. -/
def keyLimit : Nat := 1024

/-- Whether blocks end and begin by indentation at this place. -/
def isInBlock (tokenizer : Tokenizer) : Bool := tokenizer.depth = 0

end Tokenizer

namespace Cut

open Tokenizer

/-- Adds a token to those that wait. -/
def add (token : Token) : Cut Unit :=
  modify fun tokenizer => { tokenizer with waiting := tokenizer.waiting ++ [token] }

/-- Moves on to a place. -/
def moveTo (cursor : Cursor) : Cut Unit :=
  modify fun tokenizer => { tokenizer with cursor := cursor }

/-- Says whether the next token may be a key. -/
def allowKey (allows : Bool) : Cut Unit :=
  modify fun tokenizer => { tokenizer with allowsKey := allows }

/-! ## Keys and indentation -/

/-- Drops the places of possible keys that a test rejects; one that has to be a key must not go. -/
def dropKeys (keeps : Nat × KeyPlace → Bool) : Cut Unit := do
  let dropped := (← get).keys.filter fun entry => !keeps entry
  if dropped.any fun entry => entry.2.isRequired then throw .malformed
  modify fun tokenizer => { tokenizer with keys := tokenizer.keys.filter keeps }

/-- Drops the places from which it is too far to the colon. -/
def dropStaleKeys : Cut Unit := do
  let cursor := (← get).cursor
  dropKeys fun entry =>
    entry.2.cursor.line = cursor.line && cursor.index - entry.2.cursor.index ≤ keyLimit

/-- Drops the possible key inside the innermost brackets. -/
def dropKey : Cut Unit := do
  let depth := (← get).depth
  dropKeys fun entry => entry.1 != depth

/-- Notes that the next token may be a key, if it may. -/
def saveKey : Cut Unit := do
  let tokenizer ← get
  if tokenizer.allowsKey then
    dropKey
    let isRequired := tokenizer.isInBlock && tokenizer.indent = tokenizer.cursor.column
    let place : KeyPlace :=
      ⟨tokenizer.taken + tokenizer.waiting.length, isRequired, tokenizer.cursor⟩
    modify fun tokenizer => { tokenizer with keys := (tokenizer.depth, place) :: tokenizer.keys }

/-- Ends the blocks that lie further in than a column, the innermost one first. -/
def unwindFrom (column : Int) : Int → List Int → List Token × Int × List Int
  | indent, [] => ([], indent, [])
  | indent, above :: outer =>
    if column < indent then
      let (marks, indent, outer) := unwindFrom column above outer
      (.blockEnd :: marks, indent, outer)
    else ([], indent, above :: outer)

/-- Ends the blocks that lie further in than a column. Inside brackets there is no indentation. -/
def unwind (column : Int) : Cut Unit := do
  let tokenizer ← get
  if tokenizer.isInBlock then
    let (marks, indent, outer) := unwindFrom column tokenizer.indent tokenizer.outer
    set { tokenizer with waiting := tokenizer.waiting ++ marks, indent := indent, outer := outer }

/-- Starts a block at a column, if it lies further in than the block around it. -/
def indentTo (column : Nat) : Cut Bool := do
  let tokenizer ← get
  if tokenizer.indent < column then
    set { tokenizer with indent := column, outer := tokenizer.indent :: tokenizer.outer }
    return true
  else return false

/-! ## Names and tags -/

/-- A character of a name. -/
def isNameChar (c : Char) : Bool := c.isAlphanum || c == '-' || c == '_'

/-- A character that may stand in a tag. -/
def isTagChar (c : Char) : Bool :=
  c.isAlphanum || "-;/?:@&=+$,_.!~*'()[]".toList.contains c

/-- The bytes of the escapes at a place: two hexadecimal digits after each percent sign. -/
def escapedBytes : Nat → Cursor → Except Fault (List UInt8 × Cursor)
  | 0, _ => .error .malformed
  | fuel + 1, cursor =>
    if cursor.peek ≠ '%' then .ok ([], cursor)
    else
      match Text.hexValue? (cursor.step.rest.take 2) with
      | some byte =>
        if (cursor.step.rest.take 2).length < 2 then .error .malformed
        else do
          let (more, next) ← escapedBytes fuel (cursor.forward 3)
          return (UInt8.ofNat byte :: more, next)
      | none => .error .malformed

/-- The text of a tag with its escapes resolved. -/
def tagTextFrom : Nat → Cursor → Except Fault (List Char × Cursor)
  | 0, _ => .error .malformed
  | fuel + 1, cursor => do
    let (plain, next) := cursor.takeWhile isTagChar
    if next.peek ≠ '%' then return (plain, next)
    else
      let (bytes, next) ← escapedBytes (next.rest.length + 1) next
      match Text.Utf8.decode? bytes with
      | none => throw .malformed
      | some text =>
        let (more, next) ← tagTextFrom fuel next
        return (plain ++ text.toList ++ more, next)

/-- The text of a tag, which must not be empty. -/
def tagText (cursor : Cursor) : Except Fault (String × Cursor) := do
  let (text, next) ← tagTextFrom (cursor.rest.length + 1) cursor
  if next.index = cursor.index then throw .malformed else return (String.ofList text, next)

/-- The handle of a tag: a name between two exclamation marks, or one mark alone. -/
def tagHandle (cursor : Cursor) : Except Fault (String × Cursor) :=
  if cursor.peek ≠ '!' then .error .malformed
  else if cursor.peekAt 1 = ' ' then .ok ("!", cursor.step)
  else
    let (name, next) := cursor.step.takeWhile isNameChar
    if next.peek = '!' then .ok (String.ofList ('!' :: name ++ ['!']), next.step)
    else .error .malformed

/-- Reads a tag. One exclamation mark alone is a tag too. -/
def scanTag (cursor : Cursor) : Except Fault (Token × Cursor) := do
  let (token, next) ←
    if cursor.peekAt 1 = '<' then do
      let (text, next) ← tagText (cursor.forward 2)
      if next.peek = '>' then pure (Token.tag none text, next.step) else throw .malformed
    else if cursor.standsAlone then pure (Token.tag none "!", cursor.step)
    else do
      let word := cursor.step.rest.takeWhile fun c => !(isSeparator c && c != '\t')
      let (handle, next) ←
        if word.contains '!' then tagHandle cursor else pure ("!", cursor.step)
      let (text, next) ← tagText next
      pure (Token.tag (some handle) text, next)
  if next.atLineEnd || next.peek = ' ' then return (token, next) else throw .malformed

/-- Whether a name may end before the character at this place. -/
def endsName (cursor : Cursor) : Bool :=
  cursor.atWordEnd || ['?', ':', ',', ']', '}', '%', '@', '\x60'].contains cursor.peek

/-- Reads the name of an anchor or an alias after its sign. -/
def scanName (cursor : Cursor) : Except Fault (String × Cursor) :=
  let (name, next) := cursor.step.takeWhile isNameChar
  if name.isEmpty || !endsName next then .error .malformed else .ok (String.ofList name, next)

/-! ## Directives -/

/-- The most digits that a number in a directive may have. -/
def digitLimit : Nat := 4300

/-- Reads a number of a directive. -/
def directiveNumber (cursor : Cursor) : Except Fault (Nat × Cursor) :=
  let (digits, next) := cursor.takeWhile Char.isDigit
  if digits.isEmpty then .error .malformed
  else if digitLimit < digits.length then .error .noSuchValue
  else .ok (Text.natOf digits, next)

/-- Reads the version in a directive. -/
def directiveVersion (cursor : Cursor) : Except Fault (Directive × Cursor) := do
  let (major, next) ← directiveNumber cursor.skipBlanks
  if next.peek ≠ '.' then throw .malformed
  let (_, next) ← directiveNumber next.step
  if next.atLineEnd || next.peek = ' ' then return (.version major, next) else throw .malformed

/-- Reads the handle in a directive and what it stands for. -/
def directiveHandle (cursor : Cursor) : Except Fault (Directive × Cursor) := do
  let (name, next) ← tagHandle cursor.skipBlanks
  if next.peek ≠ ' ' then throw .malformed
  let (expansion, next) ← tagText next.skipBlanks
  if next.atLineEnd || next.peek = ' ' then return (.handle name expansion, next)
  else throw .malformed

/-- Reads a directive up to the end of its line. -/
def scanDirective (cursor : Cursor) : Except Fault (Directive × Cursor) := do
  let (name, next) := cursor.step.takeWhile isNameChar
  if name.isEmpty || !(next.atLineEnd || next.peek = ' ') then throw .malformed
  let (directive, next) ←
    match String.ofList name with
    | "YAML" => directiveVersion next
    | "TAG" => directiveHandle next
    | _ => pure (Directive.other, next.skipLine)
  let next := next.skipBlanks.skipComment
  if next.atLineEnd then return (directive, next.lineBreak.2) else throw .malformed

/-! ## Single tokens -/

/-- Moves on to the next token. A line break outside brackets lets a key follow. -/
def skipSpace : Nat → Cut Unit
  | 0 => return ()
  | fuel + 1 => do
    let next := (← get).cursor.skipBlanks.skipComment
    moveTo next
    match next.lineBreak with
    | ([], _) => return ()
    | (_, after) => do
      moveTo after
      if (← get).isInBlock then allowKey true
      skipSpace fuel

/-- Cuts a mark of so many characters. -/
def cutMark (length : Nat) (token : Token) : Cut Unit := do
  add token
  moveTo ((← get).cursor.forward length)

/-- Cuts the end of the text. -/
def cutStreamEnd : Cut Unit := do
  unwind (-1)
  dropKey
  modify fun tokenizer => { tokenizer with keys := [], allowsKey := false, isDone := true }
  add .streamEnd

/-- Cuts a directive. -/
def cutDirective : Cut Unit := do
  unwind (-1)
  dropKey
  allowKey false
  let (directive, next) ← scanDirective (← get).cursor
  add (.directive directive)
  moveTo next

/-- Cuts a mark at the start or the end of a document. -/
def cutDocumentMark (token : Token) : Cut Unit := do
  unwind (-1)
  dropKey
  allowKey false
  cutMark 3 token

/-- Cuts an opening bracket. -/
def cutOpening (token : Token) : Cut Unit := do
  saveKey
  modify fun tokenizer => { tokenizer with depth := tokenizer.depth + 1, allowsKey := true }
  cutMark 1 token

/-- Cuts a closing bracket. -/
def cutClosing (token : Token) : Cut Unit := do
  dropKey
  modify fun tokenizer => { tokenizer with depth := tokenizer.depth - 1, allowsKey := false }
  cutMark 1 token

/-- Cuts a comma inside brackets. -/
def cutFlowEntry : Cut Unit := do
  allowKey true
  dropKey
  cutMark 1 .flowEntry

/-- Makes sure that a block may start here, and starts one if this is further in. -/
def openBlock (token : Token) : Cut Unit := do
  let tokenizer ← get
  if tokenizer.isInBlock then
    if !tokenizer.allowsKey then throw .malformed
    if ← indentTo tokenizer.cursor.column then add token

/-- Cuts the mark of an item of a block sequence. -/
def cutBlockEntry : Cut Unit := do
  openBlock .blockSequenceStart
  allowKey true
  dropKey
  cutMark 1 .blockEntry

/-- Cuts the mark of a key that is written out. -/
def cutKey : Cut Unit := do
  openBlock .blockMappingStart
  allowKey (← get).isInBlock
  dropKey
  cutMark 1 .key

/-- A list with an item put in at a place. -/
def insertAt (place : Nat) (token : Token) (tokens : List Token) : List Token :=
  tokens.take place ++ token :: tokens.drop place

/-- Puts a token before one that waits. -/
def insertBefore (number : Nat) (token : Token) : Cut Unit :=
  modify fun tokenizer =>
    { tokenizer with waiting := insertAt (number - tokenizer.taken) token tokenizer.waiting }

/-- Cuts a colon. What it follows becomes a key. -/
def cutValue : Cut Unit := do
  let tokenizer ← get
  match tokenizer.keys.lookup tokenizer.depth with
  | some place =>
    modify fun tokenizer =>
      { tokenizer with keys := tokenizer.keys.filter fun entry => entry.1 != tokenizer.depth }
    insertBefore place.number .key
    if tokenizer.isInBlock then
      if ← indentTo place.cursor.column then insertBefore place.number .blockMappingStart
    allowKey false
  | none =>
    openBlock .blockMappingStart
    allowKey tokenizer.isInBlock
    dropKey
  cutMark 1 .value

/-- Cuts a token that may be a key and is read to a place. -/
def cutContent (scan : Cursor → Except Fault (Token × Cursor)) : Cut Unit := do
  saveKey
  allowKey false
  let (token, next) ← scan (← get).cursor
  add token
  moveTo next

/-- Cuts an alias. -/
def cutAlias : Cut Unit :=
  cutContent fun cursor => do
    let (name, next) ← scanName cursor
    return (.alias name, next)

/-- Cuts an anchor. -/
def cutAnchor : Cut Unit :=
  cutContent fun cursor => do
    let (name, next) ← scanName cursor
    return (.anchor name, next)

/-- Cuts a quoted scalar. -/
def cutQuoted : Cut Unit :=
  cutContent fun cursor => do
    let (text, next) ← Quoted.scan cursor
    return (.scalar (String.ofList text) false, next)

/-- Cuts a block scalar. -/
def cutBlockScalar (folded : Bool) : Cut Unit := do
  allowKey true
  dropKey
  let tokenizer ← get
  let (text, next) ← Block.scan folded tokenizer.indent tokenizer.cursor.step
  add (.scalar (String.ofList text) false)
  moveTo next

/-- Cuts a plain scalar. -/
def cutPlain : Cut Unit := do
  saveKey
  let tokenizer ← get
  let found := Plain.scan (!tokenizer.isInBlock) (tokenizer.indent + 1) tokenizer.cursor
  add (.scalar (String.ofList found.text) true)
  allowKey found.crossed
  moveTo found.cursor

/-- The characters that a plain scalar does not start with. -/
def isIndicator (c : Char) : Bool := "-?:,[]\x7b\x7d#&*!|>'\"%@\x60".toList.contains c

/-- Whether a plain scalar starts here. -/
def startsPlain (tokenizer : Tokenizer) : Bool :=
  let cursor := tokenizer.cursor
  let c := cursor.peek
  !(isSeparator c || isIndicator c)
    || (!cursor.standsAlone && (c == '-' || (tokenizer.isInBlock && (c == '?' || c == ':'))))

/-- Cuts the next token. -/
def cut : Cut Unit := do
  skipSpace ((← get).cursor.rest.length + 1)
  dropStaleKeys
  unwind (← get).cursor.column
  let tokenizer ← get
  let cursor := tokenizer.cursor
  let isInBlock := tokenizer.isInBlock
  if cursor.atEnd then cutStreamEnd
  else if cursor.peek = '%' && cursor.column = 0 then cutDirective
  else if cursor.column = 0 && cursor.atStartMark then cutDocumentMark .documentStart
  else if cursor.column = 0 && cursor.atEndMark then cutDocumentMark .documentEnd
  else
    match cursor.peek with
    | '[' => cutOpening .flowSequenceStart
    | '{' => cutOpening .flowMappingStart
    | ']' => cutClosing .flowSequenceEnd
    | '}' => cutClosing .flowMappingEnd
    | ',' => cutFlowEntry
    | '*' => cutAlias
    | '&' => cutAnchor
    | '!' => cutContent scanTag
    | '\'' | '"' => cutQuoted
    | c =>
      if c = '-' && cursor.standsAlone then cutBlockEntry
      else if c = '?' && (!isInBlock || cursor.standsAlone) then cutKey
      else if c = ':' && (!isInBlock || cursor.standsAlone) then cutValue
      else if c = '|' && isInBlock then cutBlockScalar false
      else if c = '>' && isInBlock then cutBlockScalar true
      else if startsPlain tokenizer then cutPlain
      else throw .malformed

/-! ## Taking tokens -/

/-- Whether more has to be cut before the first waiting token can be taken: there is none, or it may
be a key. -/
def needsMore : Cut Bool := do
  let tokenizer ← get
  if tokenizer.isDone then return false
  else if tokenizer.waiting.isEmpty then return true
  else
    dropStaleKeys
    return (← get).keys.any fun entry => entry.2.number = tokenizer.taken

/-- Cuts tokens until the first one is certain. -/
def prepare : Nat → Cut Unit
  | 0 => return ()
  | fuel + 1 => do
    if ← needsMore then
      cut
      prepare fuel

/-- The next token. -/
def peek : Cut Token := do
  prepare ((← get).cursor.rest.length + 2)
  return (← get).waiting.headD .streamEnd

/-- Leaves the next token behind. -/
def skip : Cut Unit := do
  prepare ((← get).cursor.rest.length + 2)
  modify fun tokenizer =>
    { tokenizer with waiting := tokenizer.waiting.tail, taken := tokenizer.taken + 1 }

end Cut

end ModuleAtlas.Yaml
