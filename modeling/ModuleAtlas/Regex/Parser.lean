import ModuleAtlas.Regex.Match
import ModuleAtlas.Text.Utf8
import ModuleAtlas.Text.Integer

/-!
# Reading regular expressions

The concrete syntax of search patterns. A quantifier needs something before it that reads text,
and only one quantifier may follow it; a brace that does not open a well-formed bound is an
ordinary character. Flags at the start of a pattern or of a group change what its items mean.
-/

namespace ModuleAtlas.Regex

namespace Parser

/-- What changes the meaning of items: letters in both cases, anchors at lines, points for all
characters, classes of the first 128 characters only, and blanks that do not count. -/
structure Flags where
  anyCase : Bool
  manyLines : Bool
  allCharacters : Bool
  narrow : Bool
  spaced : Bool
deriving Repr, DecidableEq

/-- The flags where none are given. -/
def Flags.usual : Flags := ⟨false, false, false, false, false⟩

/-- A member of a set under flags. -/
def Flags.atom (flags : Flags) : Atom → Atom
  | .range low high => if flags.anyCase then .anyCase low high else .range low high
  | .ofKind kind negated => if flags.narrow then .narrow kind negated else .ofKind kind negated
  | atom => atom

/-- A set of characters under flags. -/
def Flags.set (flags : Flags) (set : CharSet) : CharSet := ⟨set.negated, set.atoms.map flags.atom⟩

/-- An anchor under flags. -/
def Flags.anchor (flags : Flags) : Anchor → Anchor
  | .textStart => if flags.manyLines then .lineStart else .textStart
  | .lastLineEnd => if flags.manyLines then .lineEnd else .lastLineEnd
  | .wordBoundary => if flags.narrow then .narrowBoundary else .wordBoundary
  | .notWordBoundary => if flags.narrow then .notNarrowBoundary else .notWordBoundary
  | anchor => anchor

/-- What is left to read, the number of groups opened, those still open, the names given, the widths
of the groups that are closed, the number of groups before the current look behind, the numbers of
groups that choices refer to, and the flags. -/
structure State where
  rest : List Char
  groups : Nat
  opened : List Nat
  names : List (String × Nat)
  widths : List (Nat × Nat × Option Nat)
  behind : Option Nat
  chosen : List Nat
  flags : Flags

/-- The state before a text. -/
def State.start (text : List Char) : State := ⟨text, 0, [], [], [], none, [], .usual⟩

/-- The width of a group that is closed. -/
def State.groupWidth (state : State) (index : Nat) : Nat × Option Nat :=
  (state.widths.lookup index).getD (0, some 0)

/-- Whether a group may be referred to: it is closed, and no part of the current look behind. -/
def State.mayRefer (state : State) (index : Nat) : Bool :=
  index ≤ state.groups && !state.opened.contains index
    && state.behind.all fun groups => index ≤ groups

/-- Reads exactly `count` hexadecimal digits. -/
def hexDigits? : Nat → Nat → List Char → Option (Nat × List Char)
  | 0, value, rest => some (value, rest)
  | _ + 1, _, [] => none
  | count + 1, value, c :: rest => do
    let digit ← Text.hexDigit? c
    hexDigits? count (value * 16 + digit) rest

/-- An octal digit. -/
def isOctal (c : Char) : Bool := '0' ≤ c && c ≤ '7'

/-- Reads at most `count` octal digits. -/
def octalDigits : Nat → Nat → List Char → Nat × List Char
  | 0, value, rest => (value, rest)
  | _ + 1, value, [] => (value, [])
  | count + 1, value, c :: rest =>
    if isOctal c then octalDigits count (value * 8 + (c.toNat - '0'.toNat)) rest
    else (value, c :: rest)

/-- The number written by decimal digits. -/
def decimal (digits : List Char) : Nat :=
  digits.foldl (fun value c => value * 10 + (c.toNat - '0'.toNat)) 0

/-- The control characters that a letter after a backslash stands for. -/
def controlEscape? : Char → Option Char
  | 'a' => some '\x07'
  | 'f' => some '\x0c'
  | 'n' => some '\n'
  | 'r' => some '\r'
  | 't' => some '\t'
  | 'v' => some '\x0b'
  | '\\' => some '\\'
  | _ => none

/-- The class of characters that a letter after a backslash stands for. -/
def classEscape? : Char → Option Atom
  | 'd' => some (.ofKind .digit false)
  | 'D' => some (.ofKind .digit true)
  | 's' => some (.ofKind .blank false)
  | 'S' => some (.ofKind .blank true)
  | 'w' => some (.ofKind .word false)
  | 'W' => some (.ofKind .word true)
  | _ => none

/-- The character written by a hexadecimal escape whose letter has been read. -/
def hexEscape? (letter : Char) (rest : List Char) : Option (Except Fault (Char × List Char)) :=
  let count :=
    match letter with
    | 'x' => 2
    | 'u' => 4
    | 'U' => 8
    | _ => 0
  if count = 0 then none
  else
    match hexDigits? count 0 rest with
    | some (value, rest) =>
      some (if value ≤ 0x10FFFF then .ok (Text.ofCode value, rest) else .error .unknownEscape)
    | none => some (.error .unknownEscape)

/-- Reads what follows a backslash inside a character set. -/
def setEscape : List Char → Except Fault (Atom × List Char)
  | [] => .error .unknownEscape
  | c :: rest =>
    match classEscape? c, controlEscape? c with
    | some atom, _ => .ok (atom, rest)
    | none, some control => .ok (.range control control, rest)
    | none, none =>
      match hexEscape? c rest with
      | some found => found.map fun (c, rest) => (.range c c, rest)
      | none =>
        if c = 'b' then .ok (.range '\x08' '\x08', rest)
        else if isOctal c then
          let (value, rest) := octalDigits 3 0 (c :: rest)
          if value > 0o377 then .error .unknownEscape
          else .ok (.range (Char.ofNat value) (Char.ofNat value), rest)
        else if c.isAlphanum then .error .unknownEscape
        else .ok (.range c c, rest)

/-- Reads one member of a set that is not a range. -/
def setMember : List Char → Except Fault (Atom × List Char)
  | [] => .error .unclosedSet
  | '\\' :: rest => setEscape rest
  | c :: rest => .ok (.range c c, rest)

/-- Reads the members of a character set up to its closing bracket, which is an ordinary member
in the first place. -/
def setMembers : Nat → Bool → List Atom → List Char → Except Fault (List Atom × List Char)
  | 0, _, _, _ => .error .unclosedSet
  | _ + 1, _, _, [] => .error .unclosedSet
  | fuel + 1, first, atoms, c :: rest =>
    if c = ']' ∧ ¬first then .ok (atoms.reverse, rest)
    else do
      let (low, rest) ← setMember (c :: rest)
      match rest with
      | '-' :: ']' :: rest => .ok ((Atom.range '-' '-' :: low :: atoms).reverse, rest)
      | '-' :: rest =>
        let (high, rest) ← setMember rest
        match low, high with
        | .range a _, .range b _ =>
          if a.toNat ≤ b.toNat then setMembers fuel false (.range a b :: atoms) rest
          else .error .reversedRange
        | _, _ => .error .reversedRange
      | rest => setMembers fuel false (low :: atoms) rest

/-- Reads a character set whose opening bracket has been read. -/
def charSet (rest : List Char) : Except Fault (CharSet × List Char) :=
  match rest with
  | '^' :: rest => do
    let (atoms, rest) ← setMembers (rest.length + 1) true [] rest
    return (⟨true, atoms⟩, rest)
  | rest => do
    let (atoms, rest) ← setMembers (rest.length + 1) true [] rest
    return (⟨false, atoms⟩, rest)

/-- Reads the bounds of a counted repetition whose opening brace has been read. -/
def bounds? (rest : List Char) : Option (Except Fault (Nat × Option Nat) × List Char) :=
  let low := rest.takeWhile Char.isDigit
  let afterLow := rest.dropWhile Char.isDigit
  let least := decimal low
  match afterLow with
  | '}' :: rest => if low.isEmpty then none else some (.ok (least, some least), rest)
  | ',' :: afterComma =>
    let high := afterComma.takeWhile Char.isDigit
    match afterComma.dropWhile Char.isDigit with
    | '}' :: rest =>
      if high.isEmpty then some (.ok (least, none), rest)
      else if decimal high < least then some (.error .boundsReversed, rest)
      else some (.ok (least, some (decimal high)), rest)
    | _ => none
  | _ => none

/-- Reads the count of a quantifier, if the text starts with one. -/
def count? : List Char → Option (Except Fault (Nat × Option Nat) × List Char)
  | '?' :: rest => some (.ok (0, some 1), rest)
  | '*' :: rest => some (.ok (0, none), rest)
  | '+' :: rest => some (.ok (1, none), rest)
  | '{' :: rest => bounds? rest
  | _ => none

/-- Reads the mode after the count of a quantifier. -/
def mode : List Char → Mode × List Char
  | '?' :: rest => (.lazy, rest)
  | '+' :: rest => (.possessive, rest)
  | rest => (.greedy, rest)

/-- What may be repeated: anything but an anchor and what is repeated already. -/
inductive PieceKind where
  | anchor
  | repeated
  | other
deriving Repr, DecidableEq

/-- An item of an alternative. -/
structure Piece where
  pattern : Pattern
  kind : PieceKind

/-- An item of its usual kind. -/
def Piece.of (pattern : Pattern) : Piece :=
  match pattern with
  | .anchor _ => ⟨pattern, .anchor⟩
  | pattern => ⟨pattern, .other⟩

/-- Repeats the last of some items, which are given in reverse. -/
def quantify (bounds : Nat × Option Nat) (mode : Mode) : List Piece → Except Fault (List Piece)
  | [] | ⟨_, .anchor⟩ :: _ => .error .nothingToRepeat
  | ⟨_, .repeated⟩ :: _ => .error .repeatedTwice
  | piece :: before => .ok (⟨.loop piece.pattern bounds.1 bounds.2 mode, .repeated⟩ :: before)

/-- The pattern of items that are given in reverse. -/
def joined (pieces : List Piece) : Pattern := Pattern.sequence (pieces.reverse.map Piece.pattern)

/-- White space that does not count where blanks do not. -/
def isSpace (c : Char) : Bool := c == ' ' || (9 ≤ c.toNat && c.toNat ≤ 13)

/-- Reads a reference to a group or an octal character, whose first digit is not zero. -/
def reference (state : State) (c : Char) (rest : List Char) : Except Fault (Pattern × List Char) :=
  let digit := c.toNat - '0'.toNat
  let toGroup := fun (index : Nat) (rest : List Char) =>
    if state.mayRefer index then Except.ok (Pattern.sameAs index state.flags.anyCase, rest)
    else .error .unknownGroup
  match rest with
  | d :: e :: others =>
    if isOctal c && isOctal d && isOctal e then
      let (value, rest) := octalDigits 3 0 (c :: rest)
      if value > 0o377 then .error .unknownEscape
      else .ok (.one (state.flags.set (.single (Char.ofNat value))), rest)
    else if d.isDigit then toGroup (digit * 10 + (d.toNat - '0'.toNat)) (e :: others)
    else toGroup digit rest
  | [d] => if d.isDigit then toGroup (digit * 10 + (d.toNat - '0'.toNat)) [] else toGroup digit [d]
  | [] => toGroup digit []

/-- Reads what follows a backslash outside a character set. -/
def escape (state : State) : List Char → Except Fault (Pattern × List Char)
  | [] => .error .unknownEscape
  | c :: rest =>
    let single := fun (c : Char) => Pattern.one (state.flags.set (.single c))
    match classEscape? c, controlEscape? c with
    | some atom, _ => .ok (.one (state.flags.set ⟨false, [atom]⟩), rest)
    | none, some control => .ok (single control, rest)
    | none, none =>
      match hexEscape? c rest with
      | some found => found.map fun (c, rest) => (single c, rest)
      | none =>
        match c with
        | 'A' => .ok (.anchor .textStart, rest)
        | 'Z' => .ok (.anchor .textEnd, rest)
        | 'b' => .ok (.anchor (state.flags.anchor .wordBoundary), rest)
        | 'B' => .ok (.anchor (state.flags.anchor .notWordBoundary), rest)
        | '0' =>
          let (value, rest) := octalDigits 2 0 rest
          .ok (single (Char.ofNat value), rest)
        | c =>
          if c.isDigit then reference state c rest
          else if c.isAlpha then .error .unknownEscape
          else .ok (single c, rest)

/-! ## Flags -/

/-- The flags that letters ask for, those that are taken back included; `none` for letters that have
no effect. -/
def Flags.letter? : Char → Option (Option (Flags → Bool → Flags))
  | 'i' => some (some fun flags value => { flags with anyCase := value })
  | 'm' => some (some fun flags value => { flags with manyLines := value })
  | 's' => some (some fun flags value => { flags with allCharacters := value })
  | 'x' => some (some fun flags value => { flags with spaced := value })
  | 'a' => some (some fun flags value => { flags with narrow := value })
  | 't' => some none
  | 'u' => some (some fun flags value => { flags with narrow := flags.narrow && !value })
  | _ => none

/-- The letters of flags at the start of a text, and the text after them. -/
def flagLetters (text : List Char) : List Char × List Char :=
  let letters := text.takeWhile fun c => (Flags.letter? c).isSome
  (letters, text.drop letters.length)

/-- The flags with those of letters set or taken back. -/
def Flags.change (value : Bool) (letters : List Char) (flags : Flags) : Flags :=
  letters.foldl
    (fun flags c =>
      match Flags.letter? c with
      | some (some set) => set flags value
      | _ => flags)
    flags

/-- Whether letters can stand together: the two that choose the classes exclude each other. -/
def areTogether (letters : List Char) : Bool := !(letters.contains 'a' && letters.contains 'u')

/-- The flags inside a group that starts with flags, the text after its colon, given the letters
that are set and the text after them. -/
def scopedFlags (flags : Flags) (added : List Char) (rest : List Char) :
    Except Fault (Flags × List Char) :=
  let (removed, rest) :=
    match rest with
    | '-' :: rest => flagLetters rest
    | rest => ([], rest)
  let isUnset := removed.any fun c => c == 'a' || c == 'u' || c == 't' || added.contains c
  if !areTogether added || added.contains 't' || isUnset then .error .unknownExtension
  else
    match rest with
    | ':' :: rest => .ok ((flags.change true added).change false removed, rest)
    | _ => .error .unknownExtension

/-! ## Groups -/

/-- The number that a choice refers to. -/
def choiceNumber? (name : List Char) : Option Nat :=
  match Text.integer? name with
  | some value => if 0 < value then some value.toNat else none
  | none => none

/-- A name of a group: a letter or low line, then letters, digits and low lines. -/
def isGroupName (name : List Char) : Bool :=
  match name with
  | [] => false
  | c :: rest => Text.isWord c && !Text.isDigit c && rest.all Text.isWord

/-- Finds the group that a choice depends on. -/
def choice (state : State) (name : List Char) : Except Fault (Nat × State) :=
  let isLater := fun (index : Nat) => state.behind.isSome && !state.mayRefer index
  if isGroupName name then
    match state.names.find? fun entry => entry.1.toList == name with
    | some (_, index) => if isLater index then .error .unknownGroup else .ok (index, state)
    | none => .error .unknownGroup
  else
    match choiceNumber? name with
    | some index =>
      if isLater index then .error .unknownGroup
      else .ok (index, { state with chosen := index :: state.chosen })
    | none => .error .unknownGroup

mutual

/-- Reads alternatives up to a closing parenthesis or the end. Only at the start of the first one of
a whole pattern there may be flags for all of it. -/
def alternatives : Nat → Bool → State → Except Fault (Pattern × State)
  | 0, _, _ => .error .unclosedGroup
  | fuel + 1, isStart, state => do
    let (first, state) ← branch fuel isStart [] state
    match state.rest with
    | '|' :: rest =>
      let (others, state) ← alternatives fuel false { state with rest := rest }
      return (.either first others, state)
    | _ => return (first, state)

/-- Reads the items of one alternative, given those before in reverse. -/
def branch : Nat → Bool → List Piece → State → Except Fault (Pattern × State)
  | 0, _, _, _ => .error .unclosedGroup
  | fuel + 1, isStart, pieces, state =>
    match state.rest with
    | [] | '|' :: _ | ')' :: _ => .ok (joined pieces, state)
    | c :: rest =>
      if state.flags.spaced && isSpace c then
        branch fuel isStart pieces { state with rest := rest }
      else if state.flags.spaced && c == '#' then
        branch fuel isStart pieces { state with rest := (rest.dropWhile (· != '\n')).tail }
      else
        match count? (c :: rest) with
        | some (bounds, rest) => do
          let (mode, rest) := mode rest
          branch fuel isStart (← quantify (← bounds) mode pieces) { state with rest := rest }
        | none => do
          let (piece, state) ← item fuel (isStart && pieces.isEmpty) c { state with rest := rest }
          branch fuel isStart (piece.toList ++ pieces) state

/-- Reads one item, whose first character has been read. Comments and flags are none. -/
def item : Nat → Bool → Char → State → Except Fault (Option Piece × State)
  | 0, _, _, _ => .error .unclosedGroup
  | fuel + 1, isStart, c, state =>
    let found := fun (pattern : Pattern) (state : State) =>
      Except.ok (some (Piece.of pattern), state)
    match c with
    | '.' =>
      found (.one (if state.flags.allCharacters then .any else .anyButLineFeed)) state
    | '^' => found (.anchor (state.flags.anchor .textStart)) state
    | '$' => found (.anchor (state.flags.anchor .lastLineEnd)) state
    | '[' => do
      let (set, rest) ← charSet state.rest
      found (.one (state.flags.set set)) { state with rest := rest }
    | '\\' => do
      let (pattern, rest) ← escape state state.rest
      found pattern { state with rest := rest }
    | '(' => group fuel isStart state
    | c => found (.one (state.flags.set (.single c))) state

/-- Reads a group, whose opening parenthesis has been read. -/
def group : Nat → Bool → State → Except Fault (Option Piece × State)
  | 0, _, _ => .error .unclosedGroup
  | fuel + 1, isStart, state =>
    let found := fun (pattern : Pattern) (state : State) =>
      Except.ok (some (Piece.mk pattern .other), state)
    match state.rest with
    | '?' :: ':' :: rest => do
      let (body, state) ← enclosed fuel { state with rest := rest }
      found body state
    | '?' :: '>' :: rest => do
      let (body, state) ← enclosed fuel { state with rest := rest }
      found (.loop body 1 (some 1) .possessive) state
    | '?' :: '#' :: rest =>
      match Text.cutFirst? ')' rest with
      | some (_, rest) => .ok (none, { state with rest := rest })
      | none => .error .unclosedGroup
    | '?' :: '=' :: rest => do
      let (body, state) ← enclosed fuel { state with rest := rest }
      found (.ahead true body) state
    | '?' :: '!' :: rest => do
      let (body, state) ← enclosed fuel { state with rest := rest }
      found (.ahead false body) state
    | '?' :: '<' :: '=' :: rest => do
      let (width, body, state) ← behind fuel { state with rest := rest }
      found (.behind true width body) state
    | '?' :: '<' :: '!' :: rest => do
      let (width, body, state) ← behind fuel { state with rest := rest }
      found (.behind false width body) state
    | '?' :: 'P' :: '<' :: rest =>
      match Text.cutFirst? '>' rest with
      | some (name, rest) =>
        if isGroupName name && !(state.names.any fun entry => entry.1.toList == name) then do
          let (pattern, state) ←
            numbered fuel (some (String.ofList name)) { state with rest := rest }
          found pattern state
        else .error .unknownGroup
      | none => .error .unclosedGroup
    | '?' :: 'P' :: '=' :: rest =>
      match Text.cutFirst? ')' rest with
      | some (name, rest) =>
        match state.names.find? fun entry => entry.1.toList == name with
        | some (_, index) =>
          if state.mayRefer index then
            found (.sameAs index state.flags.anyCase) { state with rest := rest }
          else .error .unknownGroup
        | none => .error .unknownGroup
      | none => .error .unclosedGroup
    | '?' :: '(' :: rest =>
      match Text.cutFirst? ')' rest with
      | some (name, rest) => do
        let (index, state) ← choice state name
        let (pattern, state) ← chosen fuel index { state with rest := rest }
        found pattern state
      | none => .error .unclosedGroup
    | '?' :: rest =>
      let (letters, rest) := flagLetters rest
      match letters, rest with
      | _ :: _, ')' :: rest =>
        if isStart && areTogether letters then
          .ok (none, { state with flags := state.flags.change true letters, rest := rest })
        else .error .unknownExtension
      | letters, rest => do
        if letters.isEmpty && rest.head? != some '-' then throw .unknownExtension
        let (flags, rest) ← scopedFlags state.flags letters rest
        let (body, inner) ← enclosed fuel { state with flags := flags, rest := rest }
        found body { inner with flags := state.flags }
    | _ => do
      let (pattern, state) ← numbered fuel none state
      found pattern state

/-- Reads a look behind, which has one width, up to its closing parenthesis. -/
def behind : Nat → State → Except Fault (Nat × Pattern × State)
  | 0, _ => .error .unclosedGroup
  | fuel + 1, state => do
    let before := state.behind
    let (body, state) ← enclosed fuel { state with behind := some (before.getD state.groups) }
    match body.widths state.groupWidth with
    | (least, some most) =>
      if least = most then return (least, body, { state with behind := before })
      else throw .variableWidth
    | _ => throw .variableWidth

/-- Reads what a choice leads to, up to its closing parenthesis. -/
def chosen : Nat → Nat → State → Except Fault (Pattern × State)
  | 0, _, _ => .error .unclosedGroup
  | fuel + 1, index, state => do
    let (yes, state) ← branch fuel false [] state
    match state.rest with
    | '|' :: rest =>
      let (no, state) ← branch fuel false [] { state with rest := rest }
      match state.rest with
      | ')' :: rest => return (.ifMatched index yes no, { state with rest := rest })
      | _ => throw .unclosedGroup
    | ')' :: rest => return (.ifMatched index yes .empty, { state with rest := rest })
    | _ => throw .unclosedGroup

/-- Reads a group that has a number, and a name if one is given, up to its closing parenthesis. -/
def numbered : Nat → Option String → State → Except Fault (Pattern × State)
  | 0, _, _ => .error .unclosedGroup
  | fuel + 1, name, state => do
    let index := state.groups + 1
    let names :=
      match name with
      | some name => (name, index) :: state.names
      | none => state.names
    let (body, state) ← enclosed fuel
      { state with groups := index, opened := index :: state.opened, names := names }
    let width := body.widths state.groupWidth
    return (.group index body,
      { state with
        opened := state.opened.filter (· != index)
        widths := (index, width) :: state.widths })

/-- Reads alternatives and the closing parenthesis after them. -/
def enclosed : Nat → State → Except Fault (Pattern × State)
  | 0, _ => .error .unclosedGroup
  | fuel + 1, state => do
    let (body, state) ← alternatives fuel false state
    match state.rest with
    | ')' :: rest => return (body, { state with rest := rest })
    | _ => .error .unclosedGroup

end

end Parser

/-- Reads a regular expression. -/
def Expression.parse (text : String) : Except Fault Expression := do
  let chars := text.toList
  let (pattern, state) ← Parser.alternatives (6 * chars.length + 6) true (Parser.State.start chars)
  if !state.rest.isEmpty then throw .unopenedGroup
  else if state.chosen.any (state.groups < ·) then throw .unknownGroup
  else return ⟨pattern, state.groups, state.names⟩

/-- The pattern that a text describes; a text that is no regular expression matches nothing. -/
def Pattern.ofText (text : String) : Pattern :=
  match Expression.parse text with
  | .ok expression => expression.pattern
  | .error _ => .one ⟨false, []⟩

end ModuleAtlas.Regex
