import ModuleAtlas.Regex.Parser

/-!
# Replacement

Replacement templates and the substitution of every match. In a template a backslash introduces a
reference to a group or a control character; a letter that means nothing after it is a fault, and
so is a reference to a group that the expression does not have. A template is read before the
first match, so a faulty one fails even where nothing matches.
-/

namespace ModuleAtlas.Regex

/-- A part of a replacement: fixed text or the text of a group. -/
inductive Part where
  | fixed (text : List Char)
  | group (index : Nat)
deriving Repr, DecidableEq

namespace Template

open ModuleAtlas.Regex.Parser (isOctal octalDigits)

/-- Reads the reference `\g<name>` after its letter; a name of digits is a number. -/
def named (expression : Expression) (rest : List Char) : Except Fault (Nat × List Char) :=
  match rest with
  | '<' :: rest =>
    match Text.cutFirst? '>' rest with
    | some (name, rest) =>
      if !name.isEmpty && name.all Char.isDigit then
        let index := Parser.decimal name
        if index ≤ expression.groups then .ok (index, rest) else .error .unknownGroup
      else
        match expression.names.find? fun entry => entry.1.toList == name with
        | some (_, index) => .ok (index, rest)
        | none => .error (if Parser.isGroupName name then .unknownName else .unknownGroup)
    | none => .error .unclosedGroup
  | _ => .error .unclosedGroup

/-- Reads a reference by number, or an octal character, whose first digit is not zero. -/
def numbered (expression : Expression) (c : Char) (rest : List Char) :
    Except Fault (Part × List Char) :=
  let digit := c.toNat - '0'.toNat
  let toGroup := fun (index : Nat) (rest : List Char) =>
    if index ≤ expression.groups then Except.ok (Part.group index, rest) else .error .unknownGroup
  match rest with
  | d :: others =>
    if d.isDigit then
      match others with
      | e :: _ =>
        if isOctal c && isOctal d && isOctal e then
          let (value, rest) := octalDigits 3 0 (c :: rest)
          if value > 0o377 then .error .unknownEscape
          else .ok (.fixed [Char.ofNat value], rest)
        else toGroup (digit * 10 + (d.toNat - '0'.toNat)) others
      | [] => toGroup (digit * 10 + (d.toNat - '0'.toNat)) others
    else toGroup digit rest
  | [] => toGroup digit []

/-- Reads what follows a backslash in a template. -/
def escape (expression : Expression) : List Char → Except Fault (Part × List Char)
  | [] => .error .unknownEscape
  | 'g' :: rest => (named expression rest).map fun (index, rest) => (.group index, rest)
  | '0' :: rest =>
    let (value, rest) := octalDigits 2 0 rest
    .ok (.fixed [Char.ofNat value], rest)
  | 'b' :: rest => .ok (.fixed ['\x08'], rest)
  | c :: rest =>
    if c.isDigit then numbered expression c rest
    else
      match Parser.controlEscape? c with
      | some control => .ok (.fixed [control], rest)
      | none => if c.isAlpha then .error .unknownEscape else .ok (.fixed ['\\', c], rest)

/-- Reads the parts of a template. -/
def parts (expression : Expression) : Nat → List Char → Except Fault (List Part)
  | 0, _ => .ok []
  | _ + 1, [] => .ok []
  | fuel + 1, '\\' :: rest => do
    let (part, rest) ← escape expression rest
    return part :: (← parts expression fuel rest)
  | fuel + 1, c :: rest => do return .fixed [c] :: (← parts expression fuel rest)

end Template

/-- The text of a group in a match; one that took no part is empty. -/
def Occurrence.groupText (found : Occurrence) (subject : Array Char) (index : Nat) : List Char :=
  if index = 0 then slice subject found.start found.finish
  else
    match found.cursor.span? index with
    | some (start, finish) => slice subject start finish
    | none => []

/-- The text that replaces a match. -/
def Occurrence.expand (found : Occurrence) (subject : Array Char) (template : List Part) :
    List Char :=
  template.flatMap fun part =>
    match part with
    | .fixed text => text
    | .group index => found.groupText subject index

/-- The text from a position on with the given matches replaced. -/
def replaceFrom (subject : Array Char) (template : List Part) : Nat → List Occurrence → List Char
  | position, [] => slice subject position subject.size
  | position, found :: rest =>
    slice subject position found.start ++ found.expand subject template
      ++ replaceFrom subject template found.finish rest

/-- Replaces every match in a text by a template. -/
def Expression.replace (expression : Expression) (template text : String) :
    Except Fault String := do
  let chars := template.toList
  let parts ← Template.parts expression (chars.length + 1) chars
  let subject := text.toList.toArray
  return String.ofList (replaceFrom subject parts 0 (expression.pattern.occurrences subject))

/-- Replaces every match in a text by a fixed text. -/
def Pattern.replaceBy (pattern : Pattern) (fixed text : String) : String :=
  let subject := text.toList.toArray
  String.ofList (replaceFrom subject [.fixed fixed.toList] 0 (pattern.occurrences subject))

end ModuleAtlas.Regex
