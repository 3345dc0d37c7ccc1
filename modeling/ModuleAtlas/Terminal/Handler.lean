import ModuleAtlas.Text.Utf8
import ModuleAtlas.Text.Integer

/-!
# Handlers

A tag may ask for a handler, with a name, arguments in brackets, or both. Arguments are literals:
numbers, strings, the words for truth values and for nothing, and tuples, sets and tables of
literals. Nothing is worked out but signs and the sum of a number and an imaginary one. Here it only
matters whether they are well-formed.
-/

namespace ModuleAtlas.Terminal.Handler

/-- What a literal may be part of. -/
inductive Literal where
  /-- A real number without a sign. -/
  | real
  /-- An imaginary number without a sign. -/
  | imaginary
  /-- A real number with a sign. -/
  | signed
  /-- Another value that a set may hold. -/
  | key
  /-- A value that no set may hold. -/
  | mutable
deriving Repr, DecidableEq

/-- A sign before a literal: only numbers take one, and only once. -/
def Literal.withSign? : Literal → Option Literal
  | .real => some .signed
  | .imaginary => some .key
  | _ => none

/-- The sum of two literals. -/
def Literal.plus? : Literal → Literal → Option Literal
  | .real, .imaginary | .signed, .imaginary => some .key
  | _, _ => none

/-- A tuple of literals. -/
def tuple (items : List Literal) : Literal := if items.contains .mutable then .mutable else .key

/-! ## Blanks and numbers -/

/-- A line end. -/
def isLineEnd (c : Char) : Bool := c == '\n' || c == '\r'

/-- The text after blanks and comments; within brackets line ends count as blanks. -/
def skip (inside : Bool) : Bool → List Char → List Char
  | _, [] => []
  | inComment, c :: rest =>
    if inComment && !isLineEnd c then skip inside true rest
    else if c == ' ' || c == '\t' || c == '\x0c' || (inside && isLineEnd c) then
      skip inside false rest
    else if c == '#' then skip inside true rest
    else
      match c, rest with
      | '\\', '\n' :: rest => skip inside false rest
      | c, rest => c :: rest

/-- The digits at the start of a text, with single low lines between them, and the text after. -/
def digitRun (isDigit : Char → Bool) : List Char → List Char × List Char
  | [] => ([], [])
  | c :: rest =>
    if isDigit c then
      let (digits, after) := digitRun isDigit rest
      (c :: digits, after)
    else if c == '_' && (rest.head?.map isDigit).getD false then digitRun isDigit rest
    else ([], c :: rest)

/-- The text after decimal digits, if it starts with one. -/
def afterDigits? (text : List Char) : Option (List Char × List Char) :=
  if (text.head?.map Char.isDigit).getD false then some (digitRun Char.isDigit text) else none

/-- The text after an exponent, if it starts with one. -/
def afterExponent? : List Char → Option (List Char)
  | c :: rest =>
    if c == 'e' || c == 'E' then
      let unsigned :=
        match rest with
        | '+' :: more | '-' :: more => more
        | more => more
      (afterDigits? unsigned).map (·.2)
    else none
  | [] => none

/-- The most digits that a whole number may have. -/
def digitLimit : Nat := 4300

/-- Whether digits without a point are a number: they do not start with zeros. -/
def isWhole (digits : List Char) : Bool :=
  digits.length ≤ digitLimit && (digits.head? != some '0' || digits.all (· == '0'))

/-- A number in decimal digits, from what stands before and after its point. -/
def decimal (whole : List Char) (hasPoint : Bool) (rest : List Char) :
    Option (Literal × List Char) :=
  let exponent := afterExponent? rest
  let after := exponent.getD rest
  match after with
  | 'j' :: after | 'J' :: after => some (.imaginary, after)
  | after =>
    if hasPoint || exponent.isSome || isWhole whole then some (.real, after) else none

/-- The digits of the base that a letter after a zero names. -/
def baseDigits? (c : Char) : Option (Char → Bool) :=
  if c == 'x' || c == 'X' then some fun c => (Text.hexDigit? c).isSome
  else if c == 'o' || c == 'O' then some fun c => '0' ≤ c && c ≤ '7'
  else if c == 'b' || c == 'B' then some fun c => c == '0' || c == '1'
  else none

/-- A number at the start of a text. -/
def numeral? (text : List Char) : Option (Literal × List Char) :=
  let based := do
    let isDigit ← if text.head? == some '0' then text.tail.head?.bind baseDigits? else none
    let (digits, after) := digitRun isDigit (text.drop 2)
    if digits.isEmpty then none else some (Literal.real, after)
  match based, afterDigits? text with
  | some found, _ => some found
  | none, some (whole, '.' :: rest) =>
    decimal whole true (((afterDigits? rest).map (·.2)).getD rest)
  | none, some (whole, rest) => decimal whole false rest
  | none, none =>
    match text with
    | '.' :: rest => (afterDigits? rest).bind fun (_, rest) => decimal [] true rest
    | _ => none

/-- A number that no letter follows. -/
def number? (text : List Char) : Option (Literal × List Char) :=
  (numeral? text).filter fun (_, rest) => !(rest.head?.map Text.isWord).getD false

/-! ## Strings -/

/-- A form of strings: whether backslashes stand for themselves, whether the string is one of bytes,
and whether it ends with three quotes. -/
structure Form where
  raw : Bool
  bytes : Bool
  long : Bool

/-- Whether hexadecimal digits of a count stand at the start of a text. -/
def hasHex (count : Nat) (text : List Char) : Bool :=
  (text.take count).length = count && (Text.hexValue? (text.take count)).any (· ≤ 0x10FFFF)

/-- Whether a name in braces stands at the start of a text. -/
def hasName : List Char → Bool
  | '\x7b' :: rest =>
    let name := rest.takeWhile (· != '\x7d')
    !name.isEmpty && name.length < rest.length
  | _ => false

/-- Whether a text may follow a backslash in a string. -/
def isEscape (form : Form) : List Char → Bool
  | [] => false
  | c :: rest =>
    if form.raw then true
    else if c == 'x' then hasHex 2 rest
    else if form.bytes then true
    else if c == 'u' then hasHex 4 rest
    else if c == 'U' then hasHex 8 rest
    else if c == 'N' then hasName rest
    else true

/-- The text after the string whose opening quotes have been read. -/
def afterString? (form : Form) (quote : Char) : List Char → Option (List Char)
  | [] => none
  | c :: rest =>
    if form.bytes && 128 ≤ c.toNat then none
    else if c == '\\' then
      match rest with
      | [] => none
      | next :: rest =>
        if form.bytes && 128 ≤ next.toNat then none
        else if isEscape form (next :: rest) then afterString? form quote rest
        else none
    else if c == quote then
      if !form.long then some rest
      else
        match rest with
        | a :: b :: after =>
          if a == quote && b == quote then some after
          else afterString? form quote (a :: b :: after)
        | _ => none
    else if isLineEnd c && !form.long then none
    else afterString? form quote rest

/-- The letters before a string that make it raw or one of bytes. -/
def forms : List (String × Bool × Bool) := [
  ("", false, false), ("u", false, false), ("r", true, false), ("b", false, true),
  ("br", true, true), ("rb", true, true)]

/-- Whether the string at the start of a text is one of bytes, and the text after it. -/
def string? (text : List Char) : Option (Bool × List Char) := do
  let letters := text.takeWhile Char.isAlpha
  let (raw, bytes) ← forms.lookup (Text.lower (String.ofList letters))
  match text.drop letters.length with
  | [] => none
  | quote :: rest =>
    if quote != '"' && quote != '\'' then none
    else
      let long := rest.take 2 == [quote, quote]
      let rest ← afterString? ⟨raw, bytes, long⟩ quote (if long then rest.drop 2 else rest)
      return (bytes, rest)

/-- The text after strings one after the other, which are all of bytes or none is. -/
def strings? (inside bytes : Bool) : Nat → List Char → Option (List Char)
  | 0, text => some text
  | fuel + 1, text =>
    match string? (skip inside false text) with
    | some (found, rest) => if found = bytes then strings? inside bytes fuel rest else none
    | none => some text

/-! ## Literals -/

/-- Whether values end here: with a bracket, or with the text. -/
def isClosed (close : Option Char) (text : List Char) : Bool :=
  match close with
  | some c => text.head? == some c
  | none => (skip true false text).isEmpty

/-- The words that are literals. -/
def words : List String := ["True", "False", "None"]

/-- A word that is a literal, or the empty set. -/
def word? (inside : Bool) (text : List Char) : Option (Literal × List Char) :=
  let word := text.takeWhile Text.isWord
  let rest := text.drop word.length
  if words.contains (String.ofList word) then some (.key, rest)
  else if String.ofList word != "set" then none
  else
    match skip inside false rest with
    | '(' :: rest =>
      match skip true false rest with
      | ')' :: rest => some (.mutable, rest)
      | _ => none
    | _ => none

mutual

/-- A value at the start of a text. -/
def value? : Nat → Nat → Bool → List Char → Option (Literal × List Char)
  | 0, _, _, _ => none
  | fuel + 1, depth, inside, text => do
    let (first, rest) ← signed? fuel depth inside text
    match skip inside false rest with
    | '+' :: after | '-' :: after =>
      let (second, rest) ← atom? fuel depth inside (skip inside false after)
      return (← first.plus? second, rest)
    | _ => return (first, rest)

/-- A value that may have a sign. -/
def signed? : Nat → Nat → Bool → List Char → Option (Literal × List Char)
  | 0, _, _, _ => none
  | fuel + 1, depth, inside, text =>
    match text with
    | '+' :: rest | '-' :: rest => do
      let (literal, rest) ← atom? fuel depth inside (skip inside false rest)
      return (← literal.withSign?, rest)
    | text => atom? fuel depth inside text

/-- A value without a sign, with at most so many brackets in each other. -/
def atom? : Nat → Nat → Bool → List Char → Option (Literal × List Char)
  | 0, _, _, _ => none
  | fuel + 1, depth, inside, text =>
    match depth, text with
    | 0, '(' :: _ | 0, '\x7b' :: _ => none
    | depth + 1, '(' :: rest => group? fuel depth (skip true false rest)
    | depth + 1, '\x7b' :: rest => table? fuel depth (skip true false rest)
    | _, '.' :: '.' :: '.' :: rest => some (.key, rest)
    | _, text =>
      match number? text, string? text with
      | some found, _ => some found
      | none, some (bytes, rest) => do
        return (.key, ← strings? inside bytes rest.length rest)
      | none, none => word? inside text

/-- What stands in round brackets: one value, or a tuple. -/
def group? : Nat → Nat → List Char → Option (Literal × List Char)
  | 0, _, _ => none
  | _ + 1, _, ')' :: rest => some (.key, rest)
  | fuel + 1, depth, text => do
    match ← values? fuel depth true (some ')') text with
    | ([item], false, rest) => return (item, rest.tail)
    | (items, _, rest) => return (tuple items, rest.tail)

/-- What stands in braces: a set or a table. -/
def table? : Nat → Nat → List Char → Option (Literal × List Char)
  | 0, _, _ => none
  | _ + 1, _, '\x7d' :: rest => some (.mutable, rest)
  | fuel + 1, depth, text => do
    let (first, rest) ← value? fuel depth true text
    if (skip true false rest).head? == some ':' then
      return (.mutable, ← entries? fuel depth text)
    else
      let (items, _, rest) ← values? fuel depth true (some '\x7d') text
      if first = .mutable || items.contains .mutable then none
      else return (.mutable, rest.tail)

/-- The text after the entries of a table. -/
def entries? : Nat → Nat → List Char → Option (List Char)
  | 0, _, _ => none
  | _ + 1, _, '\x7d' :: rest => some rest
  | fuel + 1, depth, text => do
    let (name, rest) ← value? fuel depth true text
    match name, skip true false rest with
    | .mutable, _ => none
    | _, ':' :: rest =>
      let (_, rest) ← value? fuel depth true (skip true false rest)
      match skip true false rest with
      | '\x7d' :: rest => return rest
      | ',' :: rest => entries? fuel depth (skip true false rest)
      | _ => none
    | _, _ => none

/-- Values between commas, whether there is a comma, and the text from where they end. -/
def values? : Nat → Nat → Bool → Option Char → List Char →
    Option (List Literal × Bool × List Char)
  | 0, _, _, _, _ => none
  | fuel + 1, depth, inside, close, text => do
    let (first, rest) ← value? fuel depth inside text
    let rest := skip inside false rest
    if isClosed close rest then return ([first], false, rest)
    else
      match rest with
      | ',' :: rest =>
        let rest := skip inside false rest
        if isClosed close rest then return ([first], true, rest)
        else
          let (more, _, rest) ← values? fuel depth inside close rest
          return (first :: more, true, rest)
      | _ => none

end

/-- The most brackets that may stand in each other. -/
def depthLimit : Nat := 200

/-- Whether a text is a literal, or several between commas. -/
def isLiteral (text : List Char) : Bool :=
  !text.contains '\x00' && !text.any Text.isHalfChar
    && (values? (8 * text.length + 8) depthLimit false none (skip true false text)).isSome

/-- The arguments of a handler: what stands in brackets after its name, nothing for a mere name, and
the whole text if it has another form. -/
def arguments (written : List Char) : List Char :=
  let text := Text.trimChars Text.isBlank written
  let name := text.takeWhile fun c => Text.isWord c || c == '.'
  let rest := text.drop name.length
  if rest.isEmpty then ['(', ')']
  else if rest.head? == some '(' && rest.getLast? == some ')' && !rest.contains '\n' then rest
  else text

/-- Whether a handler is well-formed. -/
def isWellFormed (written : List Char) : Bool := written.isEmpty || isLiteral (arguments written)

end ModuleAtlas.Terminal.Handler
